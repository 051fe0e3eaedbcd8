import StyleTree.Proofs.Overlay
import StyleTree.Proofs.Node.Decoding
import StyleTree.Proofs.Json.Reading

namespace StyleTree

open Json

def Json.valuesOf (p : String → Prop) [DecidablePred p] (members : List (String × Json)) :
    List Json :=
  (members.filter fun m => p m.1).map Prod.snd

namespace Json

variable {p : String → Prop} [DecidablePred p] {members : List (String × Json)}

theorem valuesOf_cons (name : String) (j : Json) :
    valuesOf p ((name, j) :: members) =
      if p name then j :: valuesOf p members else valuesOf p members := by
  by_cases h : p name <;> simp [valuesOf, h]

theorem valuesOf_append (members others : List (String × Json)) :
    valuesOf p (members ++ others) = valuesOf p members ++ valuesOf p others := by
  simp [valuesOf]

theorem mem_valuesOf {j : Json} :
    j ∈ valuesOf p members ↔ ∃ name, p name ∧ (name, j) ∈ members := by
  simp [valuesOf, and_comm]

theorem valuesOf_insert {name : String} (other : ¬ p name) (j : Json)
    (before after : List (String × Json)) :
    valuesOf p (before ++ (name, j) :: after) = valuesOf p (before ++ after) := by
  rw [valuesOf_append, valuesOf_append, valuesOf_cons, if_neg other]

theorem valuesOf_perm {members others : List (String × Json)} (perm : members.Perm others) :
    (valuesOf p members).Perm (valuesOf p others) :=
  (perm.filter _).map _

end Json

theorem kindOf_some_iff {k k' : Kind} {members : List (String × Json)} :
    kindOf (some k) members = .ok k' ↔ k = k' ∧ valuesOf (· = "kind") members = [] := by
  induction members with
  | nil => simp [kindOf, valuesOf]
  | cons member rest ih =>
      obtain ⟨name, j⟩ := member
      by_cases tag : name = "kind"
      · simp [kindOf, tag, valuesOf]
      · rw [kindOf, if_neg tag, ih, valuesOf_cons, if_neg tag]

theorem kindOf_iff {k : Kind} {members : List (String × Json)} :
    kindOf none members = .ok k ↔
      ∃ j, valuesOf (· = "kind") members = [j] ∧ Kind.ofJson j = .ok k := by
  induction members with
  | nil => simp [kindOf, valuesOf]
  | cons member rest ih =>
      obtain ⟨name, j⟩ := member
      by_cases tag : name = "kind"
      · rw [kindOf, if_pos tag, valuesOf_cons, if_pos tag]
        constructor
        · intro read
          obtain ⟨k', found, others⟩ := ok_of_bind read
          obtain ⟨rfl, none⟩ := kindOf_some_iff.1 others
          exact ⟨j, by rw [none], found⟩
        · rintro ⟨j', same, found⟩
          obtain ⟨rfl, none⟩ := List.cons_eq_cons.1 same
          have others := (kindOf_some_iff (k := k)).2 ⟨rfl, none⟩
          simpa [found, bind, Except.bind] using others
      · rw [kindOf, if_neg tag, ih, valuesOf_cons, if_neg tag]

theorem kindOf_congr {k : Kind} {members others : List (String × Json)}
    (same : (valuesOf (· = "kind") members).Perm (valuesOf (· = "kind") others))
    (told : kindOf none members = .ok k) : kindOf none others = .ok k := by
  obtain ⟨j, only, tag⟩ := kindOf_iff.1 told
  rw [only] at same
  exact kindOf_iff.2 ⟨j, same.singleton_eq.symm, tag⟩

/-! ## Drafts -/

namespace Draft

def take (d e : Draft) : Field → Draft
  | .text => { d with text := e.text }
  | .value => { d with value := e.value }
  | .important => { d with important := e.important }
  | .params => { d with params := e.params }
  | .overlay => { d with overlay := e.overlay }
  | .nodes => { d with nodes := e.nodes }
  | .span => { d with span := e.span }

def Agree (d e : Draft) : Field → Prop
  | .text => d.text = e.text
  | .value => d.value = e.value
  | .important => d.important = e.important
  | .params => d.params = e.params
  | .overlay => d.overlay = e.overlay
  | .nodes => d.nodes = e.nodes
  | .span => d.span = e.span

variable {d e e' : Draft} {f g : Field}

theorem Agree.refl (d : Draft) (f : Field) : d.Agree d f := by cases f <;> rfl

theorem Agree.symm (h : d.Agree e f) : e.Agree d f := by
  cases f <;> exact Eq.symm h

theorem Agree.trans (h : d.Agree e f) (h' : e.Agree e' f) : d.Agree e' f := by
  cases f <;> exact Eq.trans h h'

theorem Agree.has (h : d.Agree e f) : d.has f = e.has f := by
  cases f <;> exact congrArg Option.isSome h

theorem ext_of_agree (h : ∀ f, d.Agree e f) : d = e := by
  obtain ⟨text, value, important, params, overlay, nodes, span⟩ := d
  cases (h .text : text = _)
  cases (h .value : value = _)
  cases (h .important : important = _)
  cases (h .params : params = _)
  cases (h .overlay : overlay = _)
  cases (h .nodes : nodes = _)
  cases (h .span : span = _)
  rfl

theorem take_agree (d e : Draft) (f : Field) : (d.take e f).Agree e f := by cases f <;> rfl

theorem take_agree_of_ne (d e : Draft) (other : f ≠ g) : (d.take e g).Agree d f := by
  cases f <;> cases g <;> first | rfl | exact absurd rfl other

end Draft

namespace Node

theorem readField_eq (d : Draft) (f : Field) (j : Json) :
    readField d f j = (readField {} f j).map (d.take · f) := by
  have mapped {α : Type} (r : Except Refusal α) (g h : α → Draft) (next : Draft → Draft)
      (same : ∀ a, g a = next (h a)) : r.map g = (r.map h).map next := by
    cases r with
    | error e => rfl
    | ok a => exact congrArg Except.ok (same a)
  cases f with
  | nodes =>
      cases j with
      | array items =>
          simp only [readField]
          exact mapped _ _ _ _ fun _ => rfl
      | _ =>
          simp only [readField]
          rfl
  | _ =>
      simp only [readField]
      exact mapped _ _ _ _ fun _ => rfl

variable {k : Kind} {d d' e : Draft} {f : Field} {j : Json}

theorem readField_iff :
    readField d f j = .ok d' ↔ ∃ e, readField {} f j = .ok e ∧ d' = d.take e f := by
  rw [readField_eq]
  cases readField {} f j with
  | error e => simp [Except.map]
  | ok e => simp [Except.map, eq_comm]

theorem has_of_readField (read : readField d f j = .ok d') : d'.has f := by
  unfold readField at read
  split at read
  case h_8 => cases read
  all_goals
    obtain ⟨_, -, rfl⟩ := ok_of_map read
    rfl

def given (k : Kind) (f : Field) (members : List (String × Json)) : List Json :=
  valuesOf (fun name => k.fields.lookup name = some f) members

def FieldRead (d : Draft) (values : List Json) (d' : Draft) (f : Field) : Prop :=
  values = [] ∧ d'.Agree d f ∨
    d.has f = false ∧ ∃ j e, values = [j] ∧ readField {} f j = .ok e ∧ d'.Agree e f

theorem FieldRead.congr {d₁ : Draft} {values : List Json} (read : FieldRead d values d' f)
    (same : d.Agree d₁ f) : FieldRead d₁ values d' f := by
  rcases read with ⟨none, agree⟩ | ⟨new, told⟩
  · exact .inl ⟨none, agree.trans same⟩
  · exact .inr ⟨same.has ▸ new, told⟩

section Step

variable {g : Field} {name : String} {rest : List (String × Json)}

theorem given_unknown (unknown : k.fields.lookup name = none) (f : Field) :
    given k f ((name, j) :: rest) = given k f rest := by
  rw [given, valuesOf_cons, if_neg (by simp [unknown])]
  rfl

theorem given_known (known : k.fields.lookup name = some g) :
    given k g ((name, j) :: rest) = j :: given k g rest := by
  rw [given, valuesOf_cons, if_pos known]
  rfl

theorem given_other (known : k.fields.lookup name = some g) (other : f ≠ g) :
    given k f ((name, j) :: rest) = given k f rest := by
  rw [given, valuesOf_cons, if_neg (by simpa [known] using other.symm)]
  rfl

theorem readMembers_cons_iff (known : k.fields.lookup name = some g) :
    readMembers k d ((name, j) :: rest) = .ok d' ↔
      d.has g = false ∧ ∃ e, readField {} g j = .ok e ∧
        readMembers k (d.take e g) rest = .ok d' := by
  rw [readMembers, known]
  dsimp only
  constructor
  · intro read
    split at read
    · cases read
    · next new =>
      obtain ⟨_, one, later⟩ := ok_of_bind read
      obtain ⟨e, told, rfl⟩ := readField_iff.1 one
      exact ⟨by simpa using new, e, told, later⟩
  · rintro ⟨new, e, told, later⟩
    rw [if_neg (by simp [new]), readField_iff.2 ⟨e, told, rfl⟩]
    exact later

theorem fieldRead_cons_iff (known : k.fields.lookup name = some g) :
    (∀ f, FieldRead d (given k f ((name, j) :: rest)) d' f) ↔
      d.has g = false ∧ ∃ e, readField {} g j = .ok e ∧
        ∀ f, FieldRead (d.take e g) (given k f rest) d' f := by
  constructor
  · intro same
    have field := same g
    rw [given_known known] at field
    rcases field with ⟨impossible, -⟩ | ⟨new, _, e, only, told, agree⟩
    · cases impossible
    · obtain ⟨rfl, none⟩ := List.cons_eq_cons.1 only
      refine ⟨new, e, told, fun f => ?_⟩
      by_cases here : f = g
      · subst here
        exact .inl ⟨none, agree.trans (d.take_agree e f).symm⟩
      · have field := same f
        rw [given_other known here] at field
        exact field.congr (d.take_agree_of_ne e here).symm
  · rintro ⟨new, e, told, others⟩ f
    by_cases here : f = g
    · subst here
      rcases others f with ⟨none, agree⟩ | ⟨new', -⟩
      · rw [given_known known, none]
        exact .inr ⟨new, j, e, rfl, told, agree.trans (d.take_agree e f)⟩
      · -- the field was just set, so a second member of its name would have been refused
        have set := has_of_readField (readField_iff.2 ⟨e, told, rfl⟩ : readField d f j = _)
        simp [set] at new'
    · rw [given_other known here]
      exact (others f).congr (d.take_agree_of_ne e here)

end Step

theorem readMembers_iff {members : List (String × Json)} :
    readMembers k d members = .ok d' ↔ ∀ f, FieldRead d (given k f members) d' f := by
  induction members generalizing d with
  | nil =>
      rw [readMembers]
      constructor
      · rintro ⟨⟩ f
        exact .inl ⟨rfl, .refl _ f⟩
      · intro same
        have agree (f : Field) : d.Agree d' f := by
          rcases same f with ⟨-, h⟩ | ⟨-, _, _, impossible, -⟩
          · exact h.symm
          · cases impossible
        rw [Draft.ext_of_agree agree]
  | cons member rest ih =>
      obtain ⟨name, j⟩ := member
      cases place : k.fields.lookup name with
      | none =>
          rw [readMembers, place]
          simp only [given_unknown place, ih]
      | some g => simp only [readMembers_cons_iff place, fieldRead_cons_iff place, ih]

theorem FieldRead.perm {values values' : List Json} (read : FieldRead d values d' f)
    (perm : values.Perm values') : FieldRead d values' d' f := by
  rcases read with ⟨rfl, agree⟩ | ⟨new, j, e, rfl, told, agree⟩
  · exact .inl ⟨perm.nil_eq.symm, agree⟩
  · exact .inr ⟨new, j, e, perm.singleton_eq.symm, told, agree⟩

/-- Members that say the same of every field are read alike. -/
theorem readMembers_congr {members others : List (String × Json)}
    (same : ∀ f, (given k f members).Perm (given k f others))
    (read : readMembers k d members = .ok d') : readMembers k d others = .ok d' :=
  readMembers_iff.2 fun f => (readMembers_iff.1 read f).perm (same f)

theorem readMembers_take {members others : List (String × Json)}
    (same : ∀ g, g ≠ f → given k g others = given k g members)
    (told : FieldRead {} (given k f others) e f) (read : readMembers k {} members = .ok d) :
    readMembers k {} others = .ok (d.take e f) := by
  refine readMembers_iff.2 fun g => ?_
  by_cases here : g = f
  · subst here
    rcases told with ⟨none, agree⟩ | ⟨new, j, e', only, told, agree⟩
    · exact .inl ⟨none, (d.take_agree e g).trans agree⟩
    · exact .inr ⟨new, j, e', only, told, (d.take_agree e g).trans agree⟩
  · rw [same g here]
    have agree := d.take_agree_of_ne e here
    rcases readMembers_iff.1 read g with ⟨none, agree'⟩ | ⟨new, j, e', only, told, agree'⟩
    · exact .inl ⟨none, agree.trans agree'⟩
    · exact .inr ⟨new, j, e', only, told, agree.trans agree'⟩

end Node

/-! ## Lists of fields -/

namespace Kind

theorem lookup_of_mem (k : Kind) : ∀ field ∈ k.fields, k.fields.lookup field.1 = some field.2 := by
  cases k <;> decide

theorem mem_of_lookup {k : Kind} {name : String} {f : Field}
    (known : k.fields.lookup name = some f) : (name, f) ∈ k.fields := by
  obtain ⟨before, after, split, -⟩ := List.lookup_eq_some_iff.1 known
  simp [split]

theorem name_unique (k : Kind) :
    ∀ a ∈ k.fields, ∀ b ∈ k.fields, a.2 = b.2 → a.1 = b.1 := by
  cases k <;> decide

theorem fields_nodup (k : Kind) : (k.fields.map Prod.snd).Nodup := by
  cases k <;> decide

theorem lookup_tag (k : Kind) : k.fields.lookup "kind" = none := by
  cases k <;> rfl

theorem ne_tag {k : Kind} {name : String} {f : Field} (isField : (name, f) ∈ k.fields) :
    name ≠ "kind" := by
  rintro rfl
  cases k.lookup_tag.symm.trans (k.lookup_of_mem _ isField)

end Kind

namespace Node

variable {k : Kind} {d d' : Draft} {n : Node}

def underNames (fields : List (String × Field)) (items : List Json) : List (String × Json) :=
  fields.zipWith (fun field j => (field.1, j)) items

theorem readItems_iff {fields : List (String × Field)} {items : List Json} {count : Nat}
    (known : ∀ field ∈ fields, k.fields.lookup field.1 = some field.2)
    (apart : (fields.map Prod.snd).Nodup) (new : ∀ field ∈ fields, d.has field.2 = false) :
    readItems count d fields items = .ok d' ↔
      items.length ≤ fields.length ∧ readMembers k d (underNames fields items) = .ok d' := by
  induction fields generalizing items count d with
  | nil =>
      cases items with
      | nil => simp [readItems, readMembers, underNames]
      | cons j items => simp [readItems]
  | cons field fields ih =>
      obtain ⟨name, f⟩ := field
      cases items with
      | nil => simp [readItems, readMembers, underNames]
      | cons j items =>
          have isField := known _ List.mem_cons_self
          have absent := new _ List.mem_cons_self
          obtain ⟨fresh, apart⟩ := List.nodup_cons.1 apart
          rw [underNames, List.zipWith_cons_cons, ← underNames, readItems, readMembers, isField]
          simp only [absent, Bool.false_eq_true, if_false, List.length_cons,
            Nat.add_le_add_iff_right]
          cases one : readField d f j with
          | error e => simp [Except.bind]
          | ok d₁ =>
              obtain ⟨e, -, rfl⟩ := readField_iff.1 one
              refine ih (fun field member => known _ (List.mem_cons_of_mem _ member)) apart
                fun field member => ?_
              have other : field.2 ≠ f := fun same =>
                fresh (List.mem_map.2 ⟨field, member, same⟩)
              rw [(d.take_agree_of_ne e other).has]
              exact new _ (List.mem_cons_of_mem _ member)

theorem finish_ok {missing : String → Refusal} (finished : d.finish k missing = .ok n)
    (missing' : String → Refusal) : d.finish k missing' = .ok n := by
  unfold Draft.finish at finished ⊢
  cases text : d.text with
  | some s => simpa only [text] using finished
  | none =>
      cases named : k.fields.find? (·.2 = .text) with
      | none => simpa only [text, named] using finished
      | some field => simp only [text, named, reduceCtorEq] at finished

theorem ofItems_iff {items : List Json} :
    ofItems k items = .ok n ↔
      items.length ≤ k.fields.length ∧ ofMembers k (underNames k.fields items) = .ok n := by
  have read (d : Draft) :
      readItems 0 {} k.fields items = .ok d ↔
        items.length ≤ k.fields.length ∧
          readMembers k {} (underNames k.fields items) = .ok d :=
    readItems_iff k.lookup_of_mem k.fields_nodup
      fun field _ => by cases field.2 <;> rfl
  constructor
  · intro taken
    obtain ⟨d, items, finished⟩ := ok_of_bind taken
    obtain ⟨short, members⟩ := (read d).1 items
    refine ⟨short, ?_⟩
    rw [ofMembers, members]
    exact finish_ok finished _
  · rintro ⟨short, taken⟩
    obtain ⟨d, members, finished⟩ := ok_of_bind taken
    rw [ofItems, (read d).2 ⟨short, members⟩]
    exact finish_ok finished _

theorem ofJson_object_iff {members : List (String × Json)} :
    ofJson (.object members) = .ok n ↔
      ∃ k, kindOf none members = .ok k ∧ ofMembers k members = .ok n := by
  rw [ofJson_object]
  cases kindOf none members with
  | error e => simp [Except.bind]
  | ok k => simp [Except.bind]

/-- A list says what the object with its items under the names of the fields says. -/
theorem ofJson_array_iff {tag : Json} {items : List Json} :
    ofJson (.array (tag :: items)) = .ok n ↔
      ∃ k, Kind.ofJson tag = .ok k ∧ items.length ≤ k.fields.length ∧
        ofMembers k (underNames k.fields items) = .ok n := by
  rw [ofJson_array]
  cases Kind.ofJson tag with
  | error e => simp [Except.bind]
  | ok k => simp [Except.bind, ofItems_iff]

end Node

/-! ## Spans -/

namespace Span

def EndRead (before : Option UInt32) (values : List Json) (n : UInt32) : Prop :=
  values = [] ∧ before = some n ∨ before = none ∧ ∃ j, values = [j] ∧ j.asOffset = .ok n

theorem endRead_some {m n : UInt32} {values : List Json} :
    EndRead (some m) values n ↔ values = [] ∧ m = n := by
  simp [EndRead]

theorem endRead_cons {before : Option UInt32} {j : Json} {values : List Json} {n : UInt32} :
    EndRead before (j :: values) n ↔ before = none ∧ values = [] ∧ j.asOffset = .ok n := by
  simp only [EndRead, List.cons_ne_nil, false_and, false_or, List.cons_eq_cons]
  constructor
  · rintro ⟨new, _, ⟨rfl, none⟩, told⟩
    exact ⟨new, none, told⟩
  · rintro ⟨new, none, told⟩
    exact ⟨new, j, ⟨rfl, none⟩, told⟩

theorem ofMembers_iff {start stop : Option UInt32} {members : List (String × Json)} {s : Span} :
    ofMembers start stop members = .ok s ↔
      EndRead start (valuesOf (· = "start") members) s.start ∧
        EndRead stop (valuesOf (· = "end") members) s.stop := by
  induction members generalizing start stop with
  | nil =>
      obtain ⟨s₁, s₂⟩ := s
      cases start <;> cases stop <;> simp [ofMembers, EndRead, valuesOf]
  | cons member rest ih =>
      obtain ⟨name, j⟩ := member
      rw [ofMembers, valuesOf_cons, valuesOf_cons]
      by_cases isStart : name = "start"
      · have notEnd : name ≠ "end" := by
          rw [isStart]
          decide
        rw [if_pos isStart, if_pos isStart, if_neg notEnd, endRead_cons]
        cases start with
        | some n => simp
        | none =>
            cases told : j.asOffset with
            | error e => simp [bind, Except.bind]
            | ok n => simp [bind, Except.bind, ih, endRead_some]
      · rw [if_neg isStart, if_neg isStart]
        by_cases isEnd : name = "end"
        · rw [if_pos isEnd, if_pos isEnd, endRead_cons]
          cases stop with
          | some n => simp
          | none =>
              cases told : j.asOffset with
              | error e => simp [bind, Except.bind]
              | ok n => simp [bind, Except.bind, ih, endRead_some]
        · rw [if_neg isEnd, if_neg isEnd, ih]

theorem EndRead.perm {before : Option UInt32} {values values' : List Json} {n : UInt32}
    (read : EndRead before values n) (perm : values.Perm values') : EndRead before values' n := by
  rcases read with ⟨rfl, same⟩ | ⟨new, j, rfl, told⟩
  · exact .inl ⟨perm.nil_eq.symm, same⟩
  · exact .inr ⟨new, j, perm.singleton_eq.symm, told⟩

theorem ofMembers_congr {members others : List (String × Json)} {s : Span}
    (first : (valuesOf (· = "start") members).Perm (valuesOf (· = "start") others))
    (last : (valuesOf (· = "end") members).Perm (valuesOf (· = "end") others))
    (read : ofMembers none none members = .ok s) : ofMembers none none others = .ok s := by
  obtain ⟨start, stop⟩ := ofMembers_iff.1 read
  exact ofMembers_iff.2 ⟨start.perm first, stop.perm last⟩

end Span

theorem Json.settings_cons_iff {o o' : Overlay} {name : String} {j : Json}
    {members : List (String × Json)} :
    settings o ((name, j) :: members) = .ok o' ↔
      ∃ s, asSetting j = .ok s ∧ settings (o.insert name s) members = .ok o' := by
  rw [settings]
  cases asSetting j with
  | error e => simp [bind, Except.bind]
  | ok s => simp [bind, Except.bind]

theorem Json.settings_perm {members others : List (String × Json)} (perm : members.Perm others)
    (distinct : (members.map Prod.fst).Nodup) {o o' : Overlay}
    (read : settings o members = .ok o') : settings o others = .ok o' := by
  induction perm generalizing o with
  | nil => exact read
  | cons member _ ih =>
      obtain ⟨s, told, later⟩ := settings_cons_iff.1 read
      exact settings_cons_iff.2 ⟨s, told, ih (List.nodup_cons.1 distinct).2 later⟩
  | swap second first rest =>
      obtain ⟨s, told, later⟩ := settings_cons_iff.1 read
      obtain ⟨s', told', last⟩ := settings_cons_iff.1 later
      have differ : first.1 ≠ second.1 := fun same =>
        (List.nodup_cons.1 distinct).1 (List.mem_cons.2 (.inl same))
      refine settings_cons_iff.2 ⟨s', told', settings_cons_iff.2 ⟨s, told, ?_⟩⟩
      rwa [o.insert_comm differ] at last
  | trans first _ ih ih' =>
      exact ih' ((first.map Prod.fst).nodup_iff.1 distinct) (ih distinct read)

end StyleTree
