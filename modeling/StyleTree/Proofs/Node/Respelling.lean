import StyleTree.Proofs.Node.Roots
import StyleTree.Proofs.Node.Defaults
import Mathlib

/-!
# Spellings of a tree

One node can be written in many ways: its members stand in any order and may have unknown ones among
them, fields may be left out where they hold what is taken for them, and a list of the fields may
stand for the object. `Node.Respells` tells in what a spelling may differ from another one in one
place of a tree. A text that is loaded gives the same tree in every other spelling:
`parseTree_respelled`.
-/

namespace StyleTree

open Json

inductive Span.Respells : Json → Json → Prop
  | reorder {members others : List (String × Json)} (perm : members.Perm others) :
      Span.Respells (.object members) (.object others)
  | extend {before after : List (String × Json)} {name : String} (j : Json)
      (unknown : name ∉ ["start", "end"]) :
      Span.Respells (.object (before ++ after)) (.object (before ++ (name, j) :: after))
  | list {members : List (String × Json)} {start stop : Json} (first : ("start", start) ∈ members)
      (last : ("end", stop) ∈ members) : Span.Respells (.object members) (.array [start, stop])

mutual

/-- Another spelling of a node, which differs in one place. -/
inductive Node.Respells : Json → Json → Prop
  | reorder {members others : List (String × Json)} (perm : members.Perm others) :
      Node.Respells (.object members) (.object others)
  | extend {k : Kind} {before after : List (String × Json)} {name : String} (j : Json)
      (told : kindOf none (before ++ after) = .ok k) (notTag : name ≠ "kind")
      (unknown : k.fields.lookup name = none) :
      Node.Respells (.object (before ++ after)) (.object (before ++ (name, j) :: after))
  | fill {k : Kind} {before after : List (String × Json)} {name : String} {f : Field} {j : Json}
      (told : kindOf none (before ++ after) = .ok k) (isField : (name, f) ∈ k.fields)
      (taken : f.default? = some j) (absent : ∀ m ∈ before ++ after, m.1 ≠ name) :
      Node.Respells (.object (before ++ after)) (.object (before ++ (name, j) :: after))
  | drop {k : Kind} {before after : List (String × Json)} {name : String} {f : Field} {j : Json}
      (told : kindOf none (before ++ after) = .ok k) (isField : (name, f) ∈ k.fields)
      (taken : f.default? = some j) :
      Node.Respells (.object (before ++ (name, j) :: after)) (.object (before ++ after))
  | list {k : Kind} {members : List (String × Json)} {tag : Json} {items : List Json}
      (told : kindOf none members = .ok k)
      (tagged : ("kind", tag) ∈ members ∨ tag = .string k.tag)
      (all : List.Forall₂ (fun field j => (field.1, j) ∈ members) k.fields items) :
      Node.Respells (.object members) (.array (tag :: items))
  | fillLast {k : Kind} {tag : Json} {items : List Json} {name : String} {f : Field} {j : Json}
      (told : Kind.ofJson tag = .ok k) (place : k.fields[items.length]? = some (name, f))
      (taken : f.default? = some j) :
      Node.Respells (.array (tag :: items)) (.array (tag :: (items ++ [j])))
  | dropLast {k : Kind} {tag : Json} {items : List Json} {name : String} {f : Field} {j : Json}
      (told : Kind.ofJson tag = .ok k) (place : k.fields[items.length]? = some (name, f))
      (taken : f.default? = some j) :
      Node.Respells (.array (tag :: (items ++ [j]))) (.array (tag :: items))
  | member {k : Kind} {before after : List (String × Json)} {name : String} {f : Field}
      {j j' : Json} (told : kindOf none (before ++ (name, j) :: after) = .ok k)
      (isField : (name, f) ∈ k.fields) (inside : Field.Respells f j j') :
      Node.Respells (.object (before ++ (name, j) :: after))
        (.object (before ++ (name, j') :: after))
  | item {k : Kind} {tag : Json} {before after : List Json} {name : String} {f : Field}
      {j j' : Json} (told : Kind.ofJson tag = .ok k)
      (place : k.fields[before.length]? = some (name, f)) (inside : Field.Respells f j j') :
      Node.Respells (.array (tag :: (before ++ j :: after)))
        (.array (tag :: (before ++ j' :: after)))

/-- Another spelling of what a field has; only nodes, spans and overlays have any. -/
inductive Field.Respells : Field → Json → Json → Prop
  | node {before after : List Json} {j j' : Json} (inside : Node.Respells j j') :
      Field.Respells .nodes (.array (before ++ j :: after)) (.array (before ++ j' :: after))
  | span {j j' : Json} (whole : Span.Respells j j') : Field.Respells .span j j'
  | overlay {members others : List (String × Json)} (perm : members.Perm others)
      (distinct : (members.map Prod.fst).Nodup) :
      Field.Respells .overlay (.object members) (.object others)

end

namespace Span

theorem EndRead.of_mem {name : String} {members : List (String × Json)} {j : Json} {n : UInt32}
    (read : EndRead none (valuesOf (· = name) members) n) (member : (name, j) ∈ members) :
    j.asOffset = .ok n := by
  have inside : j ∈ valuesOf (· = name) members := mem_valuesOf.2 ⟨name, rfl, member⟩
  rcases read with ⟨-, impossible⟩ | ⟨-, j', only, told⟩
  · cases impossible
  · rw [only, List.mem_singleton] at inside
    rwa [inside]

theorem Respells.read {j j' : Json} {s : Span} (respells : Span.Respells j j')
    (read : ofJson j = .ok s) : ofJson j' = .ok s := by
  cases respells with
  | reorder perm => exact ofMembers_congr (valuesOf_perm perm) (valuesOf_perm perm) read
  | extend j unknown =>
      simp only [List.mem_cons, List.not_mem_nil, or_false, not_or] at unknown
      have first := valuesOf_insert (p := (· = "start")) unknown.1 j
      have last := valuesOf_insert (p := (· = "end")) unknown.2 j
      exact ofMembers_congr (.of_eq (first ..).symm) (.of_eq (last ..).symm) read
  | list first last =>
      obtain ⟨start, stop⟩ := ofMembers_iff.1 read
      simp [ofJson, start.of_mem first, stop.of_mem last, bind, Except.bind]

theorem Respells.optional {j j' : Json} {s : Option Span} (respells : Span.Respells j j')
    (read : j.asOptional ofJson = .ok s) : j'.asOptional ofJson = .ok s := by
  have notNull : j ≠ .null ∧ j' ≠ .null := by cases respells <;> simp
  rw [asOptional] at read ⊢
  · obtain ⟨s, span, rfl⟩ := ok_of_map read
    rw [respells.read span]
    rfl
  · exact notNull.2
  · exact notNull.1

end Span

namespace Node

variable {k : Kind} {f : Field} {j j' : Json} {n : Node} {name : String}

/-! ## Lists for objects -/

theorem readItems_of_members {members : List (String × Json)} {d' : Draft}
    (read : readMembers k {} members = .ok d') {fields : List (String × Field)}
    {items : List Json} (known : ∀ field ∈ fields, k.fields.lookup field.1 = some field.2)
    (all : List.Forall₂ (fun field j => (field.1, j) ∈ members) fields items) (count : Nat)
    (d : Draft) : ∃ d'', readItems count d fields items = .ok d'' ∧ ∀ f,
      (f ∈ fields.map Prod.snd → d''.Agree d' f) ∧ (f ∉ fields.map Prod.snd → d''.Agree d f) := by
  induction all generalizing count d with
  | nil => exact ⟨d, by rw [readItems], fun f => ⟨nofun, fun _ => .refl d f⟩⟩
  | @cons field j fields items member _ ih =>
      obtain ⟨name, g⟩ := field
      have isField := known _ List.mem_cons_self
      have inside : j ∈ given k g members := mem_valuesOf.2 ⟨name, isField, member⟩
      rcases readMembers_iff.1 read g with ⟨none, -⟩ | ⟨-, j₀, e, only, told, agree⟩
      · simp [none] at inside
      · obtain rfl : j = j₀ := by simpa [only] using inside
        obtain ⟨d'', items, same⟩ :=
          ih (fun field inside => known _ (List.mem_cons_of_mem _ inside)) (count + 1) (d.take e g)
        refine ⟨d'', ?_, fun f => ⟨fun listed => ?_, fun unlisted => ?_⟩⟩
        · rw [readItems, readField_iff.2 ⟨e, told, rfl⟩]
          exact items
        · by_cases later : f ∈ fields.map Prod.snd
          · exact (same f).1 later
          · obtain rfl : f = g := by simpa [later] using listed
            exact ((same f).2 later).trans ((d.take_agree e f).trans agree.symm)
        · simp only [List.map_cons, List.mem_cons, not_or] at unlisted
          exact ((same f).2 unlisted.2).trans (d.take_agree_of_ne e unlisted.1)

theorem ofItems_of_members {members : List (String × Json)} {items : List Json}
    (all : List.Forall₂ (fun field j => (field.1, j) ∈ members) k.fields items)
    (read : ofMembers k members = .ok n) : ofItems k items = .ok n := by
  obtain ⟨d, fields, finished⟩ := ok_of_bind read
  obtain ⟨d', items, same⟩ := readItems_of_members fields k.lookup_of_mem all 0 {}
  have equal : d' = d := by
    refine Draft.ext_of_agree fun f => ?_
    by_cases listed : f ∈ k.fields.map Prod.snd
    · exact (same f).1 listed
    · rcases readMembers_iff.1 fields f with ⟨-, agree⟩ | ⟨-, j, _, only, -⟩
      · exact ((same f).2 listed).trans agree.symm
      · have inside : j ∈ given k f members := by simp [only]
        obtain ⟨name, known, -⟩ := mem_valuesOf.1 inside
        exact absurd (List.mem_map_of_mem (Kind.mem_of_lookup known)) listed
  rw [ofItems, items, equal]
  exact finish_ok finished _

theorem underNames_place {fields : List (String × Field)} {before : List Json}
    (place : fields[before.length]? = some (name, f)) (j : Json) (after : List Json) :
    underNames fields (before ++ j :: after) =
      underNames fields before ++
        (name, j) :: underNames (fields.drop (before.length + 1)) after := by
  induction before generalizing fields with
  | nil =>
      cases fields with
      | nil => cases place
      | cons field fields =>
          cases place
          simp [underNames]
  | cons item before ih =>
      cases fields with
      | nil => cases place
      | cons field fields =>
          have later : fields[before.length]? = some (name, f) := place
          simpa [underNames] using ih later

theorem underNames_concat {fields : List (String × Field)} {items : List Json}
    (place : fields[items.length]? = some (name, f)) (j : Json) :
    underNames fields (items ++ [j]) = underNames fields items ++ (name, j) :: [] := by
  rw [underNames_place place]
  exact congrArg (fun others => _ ++ (name, j) :: others) List.zipWith_nil_right

theorem given_underNames {fields : List (String × Field)} {items : List Json}
    (place : fields[items.length]? = some (name, f))
    (known : ∀ field ∈ fields, k.fields.lookup field.1 = some field.2)
    (apart : (fields.map Prod.snd).Nodup) : given k f (underNames fields items) = [] := by
  induction items generalizing fields with
  | nil => cases fields <;> rfl
  | cons item items ih =>
      cases fields with
      | nil => rfl
      | cons field fields =>
          obtain ⟨fresh, apart⟩ := List.nodup_cons.1 apart
          have later : fields[items.length]? = some (name, f) := place
          have other : ¬ k.fields.lookup field.1 = some f := by
            rw [known _ List.mem_cons_self]
            intro same
            have listed := List.mem_map_of_mem (f := Prod.snd) (List.mem_of_getElem? later)
            exact fresh (Option.some.inj same ▸ listed)
          rw [underNames, List.zipWith_cons_cons, given, valuesOf_cons, if_neg other]
          exact ih later (fun field inside => known _ (List.mem_cons_of_mem _ inside)) apart

/-! ## Nodes -/

theorem ofJsonList_insert (same : ∀ n, ofJson j = .ok n → ofJson j' = .ok n)
    {before after : List Json} {nodes : List Node}
    (read : ofJsonList (before ++ j :: after) = .ok nodes) :
    ofJsonList (before ++ j' :: after) = .ok nodes := by
  induction before generalizing nodes with
  | nil =>
      rw [List.nil_append, ofJsonList] at read ⊢
      obtain ⟨n, one, later⟩ := ok_of_bind read
      rw [same n one]
      exact later
  | cons item before ih =>
      rw [List.cons_append, ofJsonList] at read ⊢
      obtain ⟨n, one, later⟩ := ok_of_bind read
      obtain ⟨others, rest, rfl⟩ := ok_of_map later
      rw [one, ih rest]
      rfl

theorem kinds_insert (notTag : name ≠ "kind") (j : Json) (before after : List (String × Json)) :
    valuesOf (· = "kind") (before ++ (name, j) :: after) =
      valuesOf (· = "kind") (before ++ after) :=
  valuesOf_insert (p := (· = "kind")) notTag j before after

theorem given_absent (isField : (name, f) ∈ k.fields) {members : List (String × Json)}
    (absent : ∀ m ∈ members, m.1 ≠ name) : given k f members = [] := by
  refine List.eq_nil_iff_forall_not_mem.2 fun j inside => ?_
  obtain ⟨name', known, member⟩ := mem_valuesOf.1 inside
  exact absent _ member (k.name_unique _ (Kind.mem_of_lookup known) _ isField rfl)

theorem ofJson_tag_of {members : List (String × Json)} {tag : Json}
    (told : kindOf none members = .ok k)
    (tagged : ("kind", tag) ∈ members ∨ tag = .string k.tag) : Kind.ofJson tag = .ok k := by
  rcases tagged with member | rfl
  · obtain ⟨j, only, known⟩ := kindOf_iff.1 told
    have inside : tag ∈ valuesOf (· = "kind") members := mem_valuesOf.2 ⟨_, rfl, member⟩
    rw [only, List.mem_singleton] at inside
    rwa [inside]
  · exact k.ofJson_tag

theorem ofJson_object_of {members others : List (String × Json)}
    (told : kindOf none members = .ok k)
    (tags : (valuesOf (· = "kind") members).Perm (valuesOf (· = "kind") others))
    (fields : ofMembers k members = .ok n → ofMembers k others = .ok n)
    (read : ofJson (.object members) = .ok n) : ofJson (.object others) = .ok n := by
  obtain ⟨k', told', read⟩ := ofJson_object_iff.1 read
  cases told.symm.trans told'
  exact ofJson_object_iff.2 ⟨k, kindOf_congr tags told, fields read⟩

theorem ofJson_array_of {tag : Json} {items others : List Json} (told : Kind.ofJson tag = .ok k)
    (short : items.length ≤ k.fields.length → others.length ≤ k.fields.length)
    (fields : ofMembers k (underNames k.fields items) = .ok n →
      ofMembers k (underNames k.fields others) = .ok n)
    (read : ofJson (.array (tag :: items)) = .ok n) : ofJson (.array (tag :: others)) = .ok n := by
  obtain ⟨k', told', fit, read⟩ := ofJson_array_iff.1 read
  cases told.symm.trans told'
  exact ofJson_array_iff.2 ⟨k, told, short fit, fields read⟩

mutual

-- By the way the spelling differs: in the members or items of the node itself, or somewhere inside
-- the value of one field, which is then read as before.
theorem ofJson_respelled : {j j' : Json} → Respells j j' → {n : Node} →
    ofJson j = .ok n → ofJson j' = .ok n
  | _, _, .reorder perm, n, read => by
      obtain ⟨k, told, -⟩ := ofJson_object_iff.1 read
      exact ofJson_object_of told (valuesOf_perm perm)
        (ofMembers_congr fun f => given_perm perm) read
  | _, _, .extend j told notTag unknown, n, read => by
      have same (f : Field) := given_insert_unknown (f := f) unknown j
      exact ofJson_object_of told (.of_eq (kinds_insert notTag j _ _).symm)
        (ofMembers_congr fun f => .of_eq (same f _ _).symm) read
  | _, _, .fill told isField taken absent, n, read =>
      ofJson_object_of told (.of_eq (kinds_insert (Kind.ne_tag isField) _ _ _).symm)
        (ofMembers_fill isField taken (given_absent isField absent)) read
  | _, _, .drop told isField taken, n, read => by
      have same := kinds_insert (Kind.ne_tag isField)
      exact ofJson_object_of (kindOf_congr (.of_eq (same ..).symm) told) (.of_eq (same ..))
        (ofMembers_drop isField taken) read
  | _, _, .list told tagged all, n, read => by
      obtain ⟨k, told', fields⟩ := ofJson_object_iff.1 read
      cases told.symm.trans told'
      rw [ofJson_array, ofJson_tag_of told tagged]
      exact ofItems_of_members all fields
  | _, _, .fillLast told place taken, n, read => by
      have absent := given_underNames place (Kind.lookup_of_mem _) (Kind.fields_nodup _)
      refine ofJson_array_of told (fun _ => ?_) (fun fields => ?_) read
      · rw [List.length_append]
        exact (List.getElem?_eq_some_iff.1 place).1
      · rw [underNames_concat place]
        refine ofMembers_fill (List.mem_of_getElem? place) taken ?_ ?_
        · rwa [List.append_nil]
        · rwa [List.append_nil]
  | _, _, .dropLast told place taken, n, read => by
      refine ofJson_array_of told (fun fit => ?_) (fun fields => ?_) read
      · rw [List.length_append] at fit
        exact Nat.le_of_succ_le fit
      · rw [underNames_concat place] at fields
        have dropped := ofMembers_drop (List.mem_of_getElem? place) taken fields
        rwa [List.append_nil] at dropped
  | _, _, .member told isField inside, n, read => by
      have same := kinds_insert (Kind.ne_tag isField)
      exact ofJson_object_of told (.of_eq ((same ..).trans (same ..).symm))
        (ofMembers_member isField fun e => readField_respelled inside) read
  | _, _, .item told place inside, n, read => by
      refine ofJson_array_of told ?_ ?_ read
      · simp
      · rw [underNames_place place, underNames_place place]
        exact ofMembers_member (List.mem_of_getElem? place) fun e => readField_respelled inside

theorem readField_respelled : {f : Field} → {j j' : Json} → Field.Respells f j j' → {e : Draft} →
    readField {} f j = .ok e → readField {} f j' = .ok e
  | _, _, _, .node inside, e, read => by
      rw [readField] at read ⊢
      obtain ⟨nodes, items, rfl⟩ := ok_of_map read
      rw [ofJsonList_insert (fun n => ofJson_respelled inside) items]
      rfl
  | _, _, _, .span whole, e, read => by
      rw [readField] at read ⊢
      obtain ⟨s, span, rfl⟩ := ok_of_map read
      rw [whole.optional span]
      rfl
  | _, _, _, .overlay perm distinct, e, read => by
      rw [readField] at read ⊢
      obtain ⟨o, settings, rfl⟩ := ok_of_map read
      have same : asOverlay (.object _) = .ok o := settings_perm perm distinct settings
      rw [same]
      rfl

end

theorem mem_tags {members : List (String × Json)} {tag : Json} :
    tag ∈ tags (.object members) ↔ ("kind", tag) ∈ members := by
  rw [tags, mem_valuesOf]
  simp

theorem tags_respelled (respells : Respells j j') :
    ∀ tag ∈ tags j', tag ∈ tags j ∨ ∃ s, tag = .string s := by
  intro tag inside
  cases respells with
  | reorder perm =>
      rw [mem_tags] at inside ⊢
      exact .inl (perm.mem_iff.2 inside)
  | extend j told notTag unknown =>
      rw [tags, kinds_insert notTag] at inside
      exact .inl inside
  | fill told isField taken absent =>
      rw [tags, kinds_insert (Kind.ne_tag isField)] at inside
      exact .inl inside
  | drop told isField taken =>
      rw [tags, kinds_insert (Kind.ne_tag isField)]
      exact .inl inside
  | list told tagged all =>
      obtain rfl := List.mem_singleton.1 inside
      rcases tagged with member | rfl
      · exact .inl (mem_tags.2 member)
      · exact .inr ⟨_, rfl⟩
  | member told isField value =>
      rw [tags, kinds_insert (Kind.ne_tag isField)] at inside ⊢
      exact .inl inside
  | fillLast => exact .inl inside
  | dropLast => exact .inl inside
  | item => exact .inl inside

def AreRoots (j : Json) (nodes : List Node) : Prop :=
  ∃ items, j = .array items ∧ (∀ item ∈ items, TagIsText item) ∧ ofJsonList items = .ok nodes

theorem AreRoots.respelled {nodes : List Node} (roots : AreRoots j nodes)
    (respells : Field.Respells .nodes j j') : AreRoots j' nodes := by
  obtain ⟨items, rfl, words, said⟩ := roots
  cases respells with
  | @node before after one one' inside =>
      refine ⟨before ++ one' :: after, rfl, fun item member => ?_,
        ofJsonList_insert (fun n => ofJson_respelled inside) said⟩
      rcases List.mem_append.1 member with here | here
      · exact words item (List.mem_append_left _ here)
      rcases List.mem_cons.1 here with rfl | here
      · intro tag found
        rcases tags_respelled inside tag found with found | word
        · exact words one (by simp) tag found
        · exact word
      · exact words item (List.mem_append_right _ (List.mem_cons_of_mem _ here))

end Node

/-- The texts spell lists of nodes of which the second one is the first one in another spelling, in
any number of places of the tree. They may differ in their blanks as well. -/
def Respelled (source source' : String) : Prop :=
  ∃ j j', Spelled j source.toList ∧ Relation.ReflTransGen (Field.Respells .nodes) j j' ∧
    Spelled j' source'.toList

/-- A text that is loaded gives the same tree in every other spelling of it that opens no more than
127 brackets one in another. -/
theorem parseTree_respelled {source source' : String} {nodes : List Node}
    (loaded : parseTree source = .ok nodes) (respelled : Respelled source source')
    (shallow : ∃ j, Spelled j source'.toList ∧ nesting j ≤ 127) :
    parseTree source' = .ok nodes := by
  obtain ⟨items, spelled, -, words, said⟩ := parseTree_iff.1 loaded
  obtain ⟨j, j', first, respells, last⟩ := respelled
  obtain rfl := spelled.unique first
  have roots {j' : Json}
      (respells : Relation.ReflTransGen (Field.Respells .nodes) (.array items) j') :
      Node.AreRoots j' nodes := by
    induction respells with
    | refl => exact ⟨items, rfl, words, said⟩
    | tail _ step ih => exact ih.respelled step
  obtain ⟨items', rfl, words', said'⟩ := roots respells
  obtain ⟨j, spelled', low⟩ := shallow
  obtain rfl := last.unique spelled'
  exact parseTree_iff.2 ⟨items', last, low, words', said'⟩

set_option maxRecDepth 2048 in
theorem parseTree_respelled_context :
    let source := "[\x7b\"kind\":\"context\",\"context\":\x7b\"x\":true,\"y\":\"1\"\x7d\x7d]"
    let source' := "[ \x7b\"src\":7,\"nodes\":[],\"context\":\x7b\"y\":\"1\",\"x\":true\x7d," ++
      "\"kind\":\"context\"\x7d]"
    let nodes := [Node.context (.ofList [("x", .flag true), ("y", .text "1")]) []]
    parseTree source = .ok nodes ∧ Respelled source source' ∧ parseTree source' = .ok nodes := by
  intro source source' nodes
  let tag : String × Json := ("kind", .string "context")
  let x : String × Json := ("x", .bool true)
  let y : String × Json := ("y", .string "1")
  let overlay : String × Json := ("context", .object [y, x])
  let written : List (String × Json) := [tag, overlay]
  let children : String × Json := ("nodes", .array [])
  let unknown : String × Json := ("src", .number (.natural 7))
  let tree (members : List (String × Json)) : Json := .array [.object members]
  have loaded : parseTree source = .ok nodes := by cbv
  have first : parse source.toList = .ok (tree [tag, ("context", .object [x, y])]) := by cbv
  have last : parse source'.toList = .ok (tree [unknown, children, overlay, tag]) := by cbv
  have step {members members' : List (String × Json)}
      (inside : Node.Respells (.object members) (.object members')) :
      Field.Respells .nodes (tree members) (tree members') :=
    @Field.Respells.node [] [] _ _ inside
  have exchanged := step <| @Node.Respells.member .context [tag] [] "context" .overlay _ _ rfl
    (by simp [Kind.fields]) (.overlay (.swap y x []) (by simp [x, y]))
  have filled := step <| @Node.Respells.fill .context [] written "nodes" .nodes _ rfl
    (by simp [Kind.fields]) rfl (by simp [written, tag, overlay])
  have extended := step <| @Node.Respells.extend .context [] (children :: written) "src"
    unknown.2 rfl (by decide) rfl
  have reordered := step <| .reorder <| .cons unknown <| .cons children <| .swap overlay tag []
  have respelled : Respelled source source' :=
    ⟨_, _, (parse_iff.1 first).1,
      .tail (.tail (.tail (.single exchanged) filled) extended) reordered, (parse_iff.1 last).1⟩
  exact ⟨loaded, respelled, parseTree_respelled loaded respelled ⟨_, parse_iff.1 last⟩⟩

end StyleTree
